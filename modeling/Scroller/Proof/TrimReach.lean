import Scroller.Proof.HeaderStrings

/-!
# What `trim` touches

`trim` reads from the start of its string to the terminator, and back from there over spaces. On a blank
string the way back leads in front of the string, up to the last character there that is not a space.
-/

namespace Scroller

open ByteMemory

/-- The first and the last address that `trim` reads or writes. -/
def trimReach (rbuf : Nat → UInt8) (src : Nat) : Except Fault (Nat × Nat) :=
  if fullsz ≤ src then .error .outOfBounds
  else if rbuf src = 0 then return (src, src)
  else do
    let first ← forward rbuf isspace (fullsz - src) src
    let c ← forward rbuf (fun b => b ≠ 0 && b ≠ 10) (fullsz - first) first
    let last ← backward rbuf first c
    -- the last write goes behind `last`, which is in front of `c`
    return (min src last, c)

section Reach

variable {rbuf : Nat → UInt8} {src first c last p q : Nat}

theorem forward_ok {go : UInt8 → Bool} {left : Nat} (h : forward rbuf go left p = .ok q) :
    p ≤ q ∧ go (rbuf q) = false ∧ ∀ i, p ≤ i → i < q → go (rbuf i) = true := by
  induction left generalizing p with
  | zero => cases h
  | succ left ih =>
      rw [forward] at h
      by_cases hgo : go (rbuf p) = true
      · rw [if_pos hgo] at h
        obtain ⟨hle, hstop, hbetween⟩ := ih h
        refine ⟨by omega, hstop, fun i hi hiq => ?_⟩
        rcases Nat.eq_or_lt_of_le hi with rfl | hlt
        · exact hgo
        · exact hbetween i hlt hiq
      · rw [if_neg hgo] at h
        cases h
        exact ⟨Nat.le_refl _, Bool.eq_false_iff.mpr hgo, fun i hi hip => by omega⟩

theorem backward_ok (h : backward rbuf src c = .ok last) :
    last < c ∧ (last = src ∨ isspace (rbuf last) = false)
      ∧ ∀ j, last < j → j < c → isspace (rbuf j) = true := by
  induction c with
  | zero => cases h
  | succ c ih =>
      rw [backward] at h
      by_cases hgo : c ≠ src ∧ isspace (rbuf c) = true
      · rw [if_pos hgo] at h
        obtain ⟨hlt, hstop, hbetween⟩ := ih h
        refine ⟨Nat.lt_succ_of_lt hlt, hstop, fun j hj hjc => ?_⟩
        rcases Nat.lt_succ_iff_lt_or_eq.mp hjc with hjlt | rfl
        · exact hbetween j hj hjlt
        · exact hgo.2
      · rw [if_neg hgo] at h
        cases h
        refine ⟨Nat.lt_succ_self _, ?_, fun j hj hjc => by omega⟩
        by_cases heq : last = src
        · exact Or.inl heq
        · exact Or.inr (Bool.eq_false_iff.mpr fun hspace => hgo ⟨heq, hspace⟩)

/-- The places where the walks of `trim` end. -/
structure TrimWalks (rbuf : Nat → UInt8) (src first c last : Nat) : Prop where
  src_le : src ≤ first
  spaces : ∀ i, src ≤ i → i < first → isspace (rbuf i) = true
  not_space : isspace (rbuf first) = false
  first_le : first ≤ c
  chars : ∀ i, first ≤ i → i < c → rbuf i ≠ 0 ∧ rbuf i ≠ 10
  ends : rbuf c = 0 ∨ rbuf c = 10
  last_lt : last < c
  stops : last = first ∨ isspace (rbuf last) = false
  behind : ∀ j, last < j → j < c → isspace (rbuf j) = true

theorem trimWalks (hfirst : forward rbuf isspace (fullsz - src) src = .ok first)
    (hc : forward rbuf (fun b => b ≠ 0 && b ≠ 10) (fullsz - first) first = .ok c)
    (hlast : backward rbuf first c = .ok last) : TrimWalks rbuf src first c last := by
  obtain ⟨hle, hnot, hspaces⟩ := forward_ok hfirst
  obtain ⟨hle', hends, hchars⟩ := forward_ok hc
  obtain ⟨hlt, hstops, hbehind⟩ := backward_ok hlast
  refine ⟨hle, hspaces, hnot, hle', fun i hi hic => ?_, ?_, hlt, hstops, hbehind⟩
  · simpa using hchars i hi hic
  · simp only [ne_eq, Bool.and_eq_false_iff, decide_eq_false_iff_not, not_not] at hends
    exact hends

theorem trimReach_cases {lo hi : Nat} (h : trimReach rbuf src = .ok (lo, hi)) :
    (rbuf src = 0 ∧ lo = src ∧ hi = src)
      ∨ rbuf src ≠ 0 ∧ ∃ first last, TrimWalks rbuf src first hi last ∧ lo = min src last := by
  rw [trimReach] at h
  split at h
  · cases h
  · split at h
    · rename_i hzero
      cases h
      exact Or.inl ⟨hzero, rfl, rfl⟩
    · rename_i hne
      cases hfirst : forward rbuf isspace (fullsz - src) src with
      | error f =>
          rw [hfirst] at h
          cases h
      | ok first =>
          cases hc : forward rbuf (fun b => b ≠ 0 && b ≠ 10) (fullsz - first) first with
          | error f =>
              simp only [hfirst, hc, bind, Except.bind] at h
              cases h
          | ok c =>
              cases hlast : backward rbuf first c with
              | error f =>
                  simp only [hfirst, hc, hlast, bind, Except.bind] at h
                  cases h
              | ok last =>
                  simp only [hfirst, hc, hlast, bind, Except.bind] at h
                  cases h
                  exact Or.inr ⟨hne, first, last, trimWalks hfirst hc hlast, rfl⟩

/-- `trim` ends where its places are found, and it writes nowhere else. -/
theorem exists_trimReach {rbuf' : Nat → UInt8} {src' : Nat} (h : trim rbuf src = .ok (rbuf', src')) :
    ∃ lo hi, trimReach rbuf src = .ok (lo, hi) ∧ ∀ i, i < lo ∨ hi < i → rbuf' i = rbuf i := by
  rw [trim] at h
  rw [trimReach]
  split at h
  · cases h
  · rename_i hlt
    rw [if_neg hlt]
    split at h
    · rename_i hzero
      rw [if_pos hzero]
      cases h
      exact ⟨_, _, rfl, fun _ _ => rfl⟩
    · rename_i hne
      rw [if_neg hne]
      cases hfirst : forward rbuf isspace (fullsz - src) src with
      | error f =>
          rw [hfirst] at h
          cases h
      | ok first =>
          cases hc : forward rbuf (fun b => b ≠ 0 && b ≠ 10) (fullsz - first) first with
          | error f =>
              simp only [hfirst, hc, bind, Except.bind] at h
              cases h
          | ok c =>
              cases hlast : backward rbuf first c with
              | error f =>
                  simp only [hfirst, hc, hlast, bind, Except.bind] at h
                  cases h
              | ok last =>
                  simp only [hfirst, hc, hlast, bind, Except.bind] at h
                  cases h
                  simp only [hc, hlast, bind, Except.bind]
                  refine ⟨_, _, rfl, fun i hi => ?_⟩
                  have hlt := (trimWalks hfirst hc hlast).last_lt
                  exact Function.update_of_ne (by omega) _ _

theorem TrimWalks.end_le (h : TrimWalks rbuf src first c last) (hp : src ≤ p) (hterm : rbuf p = 0) :
    c ≤ p := by
  by_contra hlt
  rcases Nat.lt_or_ge p first with hbefore | hbehind
  · have hspace := h.spaces p hp hbefore
    rw [hterm, isspace_zero] at hspace
    cases hspace
  · exact (h.chars p hbehind (Nat.lt_of_not_le hlt)).1 hterm

/-- `trim` gets at least as far as the start of its string. -/
theorem le_of_trimReach {lo hi : Nat} (h : trimReach rbuf src = .ok (lo, hi)) : src ≤ hi := by
  rcases trimReach_cases h with ⟨-, -, rfl⟩ | ⟨-, first, last, hwalks, -⟩
  · exact Nat.le_refl _
  · exact hwalks.src_le.trans hwalks.first_le

/-- Where `trim` ends it stays inside the buffer. -/
theorem trimsInside_of_reach {lo hi : Nat} (hp : src ≤ p) (hterm : rbuf p = 0)
    (h : trimReach rbuf src = .ok (lo, hi)) : TrimsInside rbuf src p := by
  have hend : src + (p - src) = p := by omega
  obtain ⟨e, -, htake, hzero, hnonzero⟩ := @exists_terminator rbuf src (p - src) (by rwa [hend])
  rw [TrimsInside, htake, length_slice]
  rcases trimReach_cases h with ⟨hempty, -, -⟩ | ⟨-, first, last, hwalks, -⟩
  · rcases Nat.eq_zero_or_pos e with rfl | hpos
    · exact Or.inl rfl
    · exact absurd hempty (hnonzero _ (mem_slice_of_lt (i := 0) hpos))
  · have hle := hwalks.end_le (Nat.le_add_right src e) hzero
    have hlast := hwalks.last_lt
    rcases hwalks.stops with rfl | hspace
    · exact Or.inr ⟨last, by omega, hwalks.not_space⟩
    · exact Or.inr ⟨last, by omega, hspace⟩

/-- In a string without line ends, `trim` does not get in front of something that is not a space. -/
theorem reach_le {lo hi j : Nat} (h : trimReach rbuf src = .ok (lo, hi)) (hp : src ≤ p)
    (hterm : rbuf p = 0) (hchars : ∀ i, src ≤ i → i < p → rbuf i ≠ 0 ∧ rbuf i ≠ 10) (hj : j < p)
    (hspace : isspace (rbuf j) = false) : min src j ≤ lo ∧ hi ≤ p := by
  rcases trimReach_cases h with ⟨-, rfl, rfl⟩ | ⟨-, first, last, hwalks, rfl⟩
  · exact ⟨Nat.min_le_left _ _, hp⟩
  · have hle := hwalks.end_le hp hterm
    have hend : hi = p := by
      by_contra hne
      obtain ⟨hzero, hten⟩ := hchars hi (hwalks.src_le.trans hwalks.first_le) (by omega)
      exact hwalks.ends.elim hzero hten
    have hlast : j ≤ last := by
      by_contra hlt
      have hcontra := hwalks.behind j (by omega) (by omega)
      rw [hspace] at hcontra
      cases hcontra
    exact ⟨by omega, hle⟩

/-- On a blank string `trim` gets in front of the string. -/
theorem reach_of_blank {lo hi : Nat} (h : trimReach rbuf src = .ok (lo, hi)) (hp : src < p)
    (hterm : rbuf p = 0) (hblank : ∀ i, src ≤ i → i < p → isspace (rbuf i) = true) : lo < src := by
  rcases trimReach_cases h with ⟨hzero, -, -⟩ | ⟨-, first, last, hwalks, rfl⟩
  · have hspace := hblank src (Nat.le_refl src) hp
    rw [hzero, isspace_zero] at hspace
    cases hspace
  · have hle := hwalks.end_le (Nat.le_of_lt hp) hterm
    have hfirst := hwalks.first_le
    have hend : p ≤ first := by
      by_contra hlt
      have hspace := hblank first hwalks.src_le (by omega)
      rw [hwalks.not_space] at hspace
      cases hspace
    have hlast := hwalks.last_lt
    have hfront : last < src := by
      by_contra hge
      have hspace := hblank last (by omega) (by omega)
      rcases hwalks.stops with heq | hnot
      · omega
      · rw [hnot] at hspace
        cases hspace
    omega

end Reach

end Scroller
