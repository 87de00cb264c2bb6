import Scroller.Lib.CString
import Scroller.Proof.TrimReach
import Scroller.StringAccess

/-!
# Where `trim` stays in its string

Both versions walk from both ends of the string to something that is not blank. They stay inside the string and find
its core exactly where there is such a character, or no character at all; and the version of the client library ends
the string at a line end.
-/

namespace Scroller

open CString Trimming

/-- `trim` comes to its end, touches nothing outside the string, and returns the string without its blanks. -/
def TrimVersion.Inside (v : TrimVersion) (mem : Int → UInt8) (src : Int) (s : List UInt8) : Prop :=
  ∃ fuel t, v.trim mem fuel src s.length = some t
    ∧ (∀ a ∈ t.touched, src ≤ a ∧ a ≤ src + s.length) ∧ StringAt t.mem t.ret (core v.blank s)

/-! ### The walks -/

section Walks

variable {mem : Int → UInt8} {go : UInt8 → Bool} {stop : Option Int} {fuel : Nat} {p q c d : Int}
  {reads : List Int} {s : List UInt8}

theorem walkUp_chars (hs : Chars mem p s) (hgo : ∀ b ∈ s, go b = true) (hend : go (mem (p + s.length)) = false)
    (hfuel : s.length < fuel) :
    ∃ reads, walkUp mem go fuel p = some (p + s.length, reads) ∧ ∀ a ∈ reads, p ≤ a ∧ a ≤ p + s.length := by
  induction s generalizing p fuel with
  | nil =>
      obtain ⟨fuel, rfl⟩ := Nat.exists_eq_succ_of_ne_zero (Nat.ne_zero_of_lt hfuel)
      simp only [List.length_nil, Int.natCast_zero, Int.add_zero] at hend ⊢
      rw [Nat.succ_eq_add_one, walkUp, hend]
      refine ⟨_, rfl, ?_⟩
      intro a ha
      rw [List.mem_singleton.mp ha]
      omega
  | cons b s ih =>
      obtain ⟨fuel, rfl⟩ := Nat.exists_eq_succ_of_ne_zero (Nat.ne_zero_of_lt hfuel)
      rw [List.length_cons] at hend hfuel ⊢
      have hnext : p + ((s.length + 1 : Nat) : Int) = p + 1 + s.length := by omega
      rw [hnext] at hend ⊢
      obtain ⟨reads, hwalk, hreads⟩ := ih hs.2 (fun b hb => hgo b (List.mem_cons_of_mem _ hb)) hend
        (Nat.lt_of_succ_lt_succ hfuel)
      have hfirst : go (mem p) = true := by
        rw [hs.1]
        exact hgo b List.mem_cons_self
      rw [Nat.succ_eq_add_one, walkUp, if_pos hfirst, hwalk]
      refine ⟨p :: reads, rfl, ?_⟩
      intro a ha
      rcases List.mem_cons.mp ha with rfl | ha
      · omega
      · have hbounds := hreads a ha
        omega

theorem walkUp_spec (h : walkUp mem go fuel p = some (q, reads)) :
    p ≤ q ∧ go (mem q) = false ∧ ∀ a, p ≤ a → a < q → go (mem a) = true := by
  induction fuel generalizing p reads with
  | zero => cases h
  | succ fuel ih =>
      rw [walkUp] at h
      by_cases hgo : go (mem p) = true
      · rw [if_pos hgo] at h
        obtain ⟨⟨q', reads'⟩, hwalk, h⟩ := Option.bind_eq_some_iff.mp h
        cases h
        obtain ⟨hle, hend, hbetween⟩ := ih hwalk
        refine ⟨by omega, hend, ?_⟩
        intro a hlow hhigh
        rcases Int.lt_or_eq_of_le hlow with hlt | rfl
        · exact hbetween a (by omega) hhigh
        · exact hgo
      · rw [if_neg hgo] at h
        cases h
        exact ⟨Int.le_refl _, Bool.eq_false_iff.mpr hgo, fun a hlow hhigh => by omega⟩

theorem walkUp_end (hs : Chars mem p s) (hgo : ∀ b ∈ s, go b = true) (hend : go (mem (p + s.length)) = false)
    (hwalk : walkUp mem go fuel p = some (q, reads)) : q = p + s.length := by
  obtain ⟨hle, hstop, hbetween⟩ := walkUp_spec hwalk
  by_contra hne
  rcases Int.lt_or_gt_of_ne hne with hlt | hgt
  · rw [hgo _ (hs.mem_of_lt hle hlt)] at hstop
    cases hstop
  · rw [hbetween _ (by omega) hgt] at hend
    cases hend

theorem walkDown_chars (hs : Chars mem p s) (hgo : ∀ b ∈ s, go b = true)
    (hstop : ∀ a, p ≤ a → a < p + s.length → stop ≠ some a)
    (hend : stop = some (p - 1) ∨ go (mem (p - 1)) = false) (hfuel : s.length < fuel) :
    ∃ reads, walkDown mem stop go fuel (p + s.length - 1) = some (p - 1, reads)
      ∧ ∀ a ∈ reads, p - 1 ≤ a ∧ a < p + s.length := by
  induction s using List.reverseRecOn generalizing fuel with
  | nil =>
      obtain ⟨fuel, rfl⟩ := Nat.exists_eq_succ_of_ne_zero (Nat.ne_zero_of_lt hfuel)
      simp only [List.length_nil, Int.natCast_zero, Int.add_zero]
      rw [Nat.succ_eq_add_one, walkDown]
      by_cases hat : stop = some (p - 1)
      · rw [if_pos hat]
        exact ⟨[], rfl, nofun⟩
      · rw [if_neg hat, if_neg (Bool.eq_false_iff.mp (hend.resolve_left hat))]
        refine ⟨_, rfl, ?_⟩
        intro a ha
        rw [List.mem_singleton.mp ha]
        omega
  | append_singleton s b ih =>
      obtain ⟨fuel, rfl⟩ := Nat.exists_eq_succ_of_ne_zero (Nat.ne_zero_of_lt hfuel)
      rw [List.length_append, List.length_singleton] at hstop hfuel ⊢
      have hlast : p + ((s.length + 1 : Nat) : Int) - 1 = p + s.length := by omega
      obtain ⟨hs, hb⟩ := chars_append.mp hs
      obtain ⟨reads, hwalk, hreads⟩ := ih hs (fun b hb => hgo b (List.mem_append_left _ hb))
        (fun a hlow hhigh => hstop a hlow (by omega)) (Nat.lt_of_succ_lt_succ hfuel)
      have hread : go (mem (p + s.length)) = true := by
        rw [hb.1]
        exact hgo b (List.mem_append_right _ List.mem_cons_self)
      rw [Nat.succ_eq_add_one, hlast, walkDown, if_neg (hstop _ (by omega) (by omega)), if_pos hread, hwalk]
      refine ⟨(p + s.length) :: reads, rfl, ?_⟩
      intro a ha
      rcases List.mem_cons.mp ha with rfl | ha
      · omega
      · have hbounds := hreads a ha
        omega

theorem walkDown_spec (h : walkDown mem stop go fuel c = some (d, reads)) :
    d ≤ c ∧ (stop = some d ∨ go (mem d) = false ∧ d ∈ reads)
      ∧ ∀ a, d < a → a ≤ c → go (mem a) = true ∧ stop ≠ some a := by
  induction fuel generalizing c reads with
  | zero => cases h
  | succ fuel ih =>
      rw [walkDown] at h
      by_cases hat : stop = some c
      · rw [if_pos hat] at h
        cases h
        exact ⟨Int.le_refl _, .inl hat, fun a hlow hhigh => by omega⟩
      · rw [if_neg hat] at h
        by_cases hgo : go (mem c) = true
        · rw [if_pos hgo] at h
          obtain ⟨⟨d', reads'⟩, hwalk, h⟩ := Option.bind_eq_some_iff.mp h
          cases h
          obtain ⟨hle, hend, hbetween⟩ := ih hwalk
          refine ⟨by omega, hend.imp_right fun ⟨hnot, hread⟩ => ⟨hnot, List.mem_cons_of_mem _ hread⟩, ?_⟩
          intro a hlow hhigh
          rcases Int.lt_or_eq_of_le hhigh with hlt | rfl
          · exact hbetween a hlow (by omega)
          · exact ⟨hgo, hat⟩
        · rw [if_neg hgo] at h
          cases h
          exact ⟨Int.le_refl _, .inr ⟨Bool.eq_false_iff.mpr hgo, List.mem_cons_self⟩,
            fun a hlow hhigh => by omega⟩

end Walks

/-! ### Strings with something that is not blank -/

/-- The parts of a string that is not blank. -/
structure Parts (mem : Int → UInt8) (blank : UInt8 → Bool) (src : Int) (s lead trail : List UInt8) : Prop where
  length_eq : s.length = lead.length + ((core blank s).length + trail.length)
  lead_chars : Chars mem src lead
  core_chars : Chars mem (src + lead.length) (core blank s)
  trail_chars : Chars mem (src + lead.length + (core blank s).length) trail
  lead_blank : ∀ b ∈ lead, b ≠ 0 ∧ blank b = true
  trail_blank : ∀ b ∈ trail, b ≠ 0 ∧ blank b = true
  nonzero : 0 ∉ core blank s
  pos : 0 < (core blank s).length
  first : blank (mem (src + lead.length)) = false
  last : blank (mem (src + lead.length + (core blank s).length - 1)) = false

section Parts

variable {mem : Int → UInt8} {blank : UInt8 → Bool} {src : Int} {s lead trail : List UInt8} {fuel : Nat}

theorem exists_parts (h : StringAt mem src s) (hne : core blank s ≠ []) :
    ∃ lead trail, Parts mem blank src s lead trail := by
  obtain ⟨lead, trail, hs, hlead, htrail, -⟩ := exists_core blank s
  have hchars := h.chars
  have hnonzero := h.nonzero
  rw [hs] at hchars hnonzero
  obtain ⟨hleadAt, hrest⟩ := chars_append.mp hchars
  obtain ⟨hcoreAt, htrailAt⟩ := chars_append.mp hrest
  rw [List.mem_append, List.mem_append, not_or, not_or] at hnonzero
  obtain ⟨hnotLead, hnotCore, hnotTrail⟩ := hnonzero
  refine ⟨lead, trail, ?_⟩
  refine {
    length_eq := ?_
    lead_chars := hleadAt
    core_chars := hcoreAt
    trail_chars := htrailAt
    lead_blank := fun b hb => ⟨fun hzero => hnotLead (hzero ▸ hb), hlead b hb⟩
    trail_blank := fun b hb => ⟨fun hzero => hnotTrail (hzero ▸ hb), htrail b hb⟩
    nonzero := hnotCore
    pos := List.length_pos_of_ne_nil hne
    first := ?_
    last := ?_
  }
  · rw [← List.length_append, ← List.length_append, ← hs]
  · apply head?_core (s := s)
    cases hcore : core blank s with
    | nil => exact absurd hcore hne
    | cons b rest =>
        rw [hcore] at hcoreAt
        rw [hcoreAt.1]
        rfl
  · apply getLast?_core (s := s)
    rcases List.eq_nil_or_concat' (core blank s) with hnil | ⟨init, b, hcore⟩
    · exact absurd hnil hne
    · rw [hcore] at hcoreAt ⊢
      have hat := (chars_append.mp hcoreAt).2.1
      rw [List.length_append, List.length_singleton, List.getLast?_concat, Option.mem_def]
      rw [show src + lead.length + ((init.length + 1 : Nat) : Int) - 1 = src + lead.length + init.length by omega,
        hat]

theorem Parts.walk_lead (h : Parts mem blank src s lead trail) (hfuel : s.length < fuel) :
    ∃ reads, walkUp mem (fun b => b ≠ 0 && blank b) fuel src = some (src + lead.length, reads)
      ∧ ∀ a ∈ reads, src ≤ a ∧ a ≤ src + s.length := by
  have hlength := h.length_eq
  obtain ⟨reads, hwalk, hreads⟩ := @walkUp_chars mem (fun b => b ≠ 0 && blank b) fuel src lead h.lead_chars
    (fun b hb => by simp [h.lead_blank b hb]) (by simp [h.first]) (by omega)
  refine ⟨reads, hwalk, ?_⟩
  intro a ha
  have hbounds := hreads a ha
  omega

end Parts

/-! ### Runs of the two versions -/

section Runs

variable {mem : Int → UInt8} {fuel len : Nat} {src : Int} {t : TrimRun}

theorem Scrc.trim_eq_some (hstart : mem src ≠ 0) :
    Scrc.trim mem fuel src = some t ↔ ∃ first spaces c chars last blanks,
      walkUp mem (fun b => b ≠ 0 && isspace b) fuel src = some (first, spaces)
        ∧ walkUp mem (fun b => b ≠ 0 && b ≠ 10) fuel first = some (c, chars)
        ∧ walkDown mem (some first) isspace fuel (c - 1) = some (last, blanks)
        ∧ t = ⟨Function.update mem (last + 1) 0, first, src :: spaces ++ chars ++ blanks ++ [last + 1]⟩ := by
  rw [Scrc.trim, if_neg hstart]
  constructor
  · intro h
    obtain ⟨⟨first, spaces⟩, hfirst, h⟩ := Option.bind_eq_some_iff.mp h
    obtain ⟨⟨c, chars⟩, hc, h⟩ := Option.bind_eq_some_iff.mp h
    obtain ⟨⟨last, blanks⟩, hlast, h⟩ := Option.bind_eq_some_iff.mp h
    exact ⟨first, spaces, c, chars, last, blanks, hfirst, hc, hlast, (Option.some.inj h).symm⟩
  · rintro ⟨first, spaces, c, chars, last, blanks, hfirst, hc, hlast, rfl⟩
    refine Option.bind_eq_some_iff.mpr ⟨_, hfirst, ?_⟩
    refine Option.bind_eq_some_iff.mpr ⟨_, hc, ?_⟩
    exact Option.bind_eq_some_iff.mpr ⟨_, hlast, rfl⟩

theorem Hquery.trim_eq_some (hstart : mem src ≠ 0) (hlen : 0 < len) :
    Hquery.trim mem fuel src len = some t ↔ ∃ first spaces last blanks,
      walkUp mem (fun b => b ≠ 0 && isBlank b) fuel src = some (first, spaces)
        ∧ walkDown mem none (fun b => b ≠ 0 && isBlank b) fuel (src + len - 1) = some (last, blanks)
        ∧ t = ⟨Function.update mem (last + 1) 0, first, src :: spaces ++ blanks ++ [last + 1]⟩ := by
  rw [Hquery.trim, if_neg (not_or.mpr ⟨hstart, Nat.ne_of_gt hlen⟩)]
  constructor
  · intro h
    obtain ⟨⟨first, spaces⟩, hfirst, h⟩ := Option.bind_eq_some_iff.mp h
    obtain ⟨⟨last, blanks⟩, hlast, h⟩ := Option.bind_eq_some_iff.mp h
    exact ⟨first, spaces, last, blanks, hfirst, hlast, (Option.some.inj h).symm⟩
  · rintro ⟨first, spaces, last, blanks, hfirst, hlast, rfl⟩
    refine Option.bind_eq_some_iff.mpr ⟨_, hfirst, ?_⟩
    exact Option.bind_eq_some_iff.mpr ⟨_, hlast, rfl⟩

end Runs

namespace TrimVersion

variable {mem : Int → UInt8} {src : Int} {s : List UInt8}

theorem inside_nil (v : TrimVersion) (h : StringAt mem src []) : v.Inside mem src [] := by
  have hzero : mem src = 0 := by
    have hterminator := h.terminator
    rwa [List.length_nil, Int.natCast_zero, Int.add_zero] at hterminator
  refine ⟨0, ⟨mem, src, [src]⟩, ?_, ?_, h⟩
  · cases v
    · exact if_pos hzero
    · exact if_pos (.inl hzero)
  · intro a ha
    rw [List.mem_singleton.mp ha]
    omega

theorem start_ne_zero (h : StringAt mem src s) (hpos : 0 < s.length) : mem src ≠ 0 := by
  intro hzero
  exact h.nonzero (hzero ▸ h.chars.mem_of_lt (Int.le_refl src) (by omega))

theorem inside_lexer (h : StringAt mem src s) (hne : core Hquery.isBlank s ≠ []) :
    TrimVersion.lexer.Inside mem src s := by
  obtain ⟨lead, trail, hparts⟩ := exists_parts h hne
  have hlength := hparts.length_eq
  have hpos := hparts.pos
  obtain ⟨spaces, hlead, hspaces⟩ := hparts.walk_lead (Nat.lt_succ_self s.length)
  obtain ⟨blanks, htrail, hblanks⟩ := @walkDown_chars mem (fun b => b ≠ 0 && Hquery.isBlank b) none
    (s.length + 1) _ trail hparts.trail_chars (fun b hb => by simp [hparts.trail_blank b hb])
    (fun _ _ _ => nofun) (.inr (by simp [hparts.last])) (by omega)
  have hend : src + lead.length + (core Hquery.isBlank s).length + trail.length = src + s.length := by
    omega
  rw [hend] at htrail hblanks
  refine ⟨s.length + 1, _, (Hquery.trim_eq_some (start_ne_zero h (by omega)) (by omega)).mpr
    ⟨_, _, _, _, hlead, htrail, rfl⟩, ?_, ?_⟩
  · intro a ha
    rcases List.mem_append.mp ha with ha | ha
    · rcases List.mem_append.mp ha with ha | ha
      · rcases List.mem_cons.mp ha with rfl | ha
        · omega
        · exact hspaces a ha
      · have hbounds := hblanks a ha
        omega
    · rw [List.mem_singleton.mp ha]
      omega
  · dsimp only
    rw [Int.sub_add_cancel]
    exact hparts.core_chars.cut hparts.nonzero

theorem exists_line (trail : List UInt8) :
    ∃ blanks rest, trail = blanks ++ rest ∧ (∀ b ∈ blanks, b ≠ 10) ∧ ∀ b ∈ rest.head?, b = 10 := by
  refine ⟨trail.takeWhile (· ≠ 10), trail.dropWhile (· ≠ 10), List.takeWhile_append_dropWhile.symm, ?_, ?_⟩
  · intro b hb
    simpa using List.mem_takeWhile_imp hb
  · intro b hb
    have hnot := List.head?_dropWhile_not (fun b : UInt8 => decide (b ≠ 10)) trail
    rw [Option.mem_def] at hb
    rw [hb] at hnot
    simpa using hnot

theorem inside_client (h : StringAt mem src s) (hne : core isspace s ≠ []) (hline : 10 ∉ core isspace s) :
    TrimVersion.client.Inside mem src s := by
  obtain ⟨lead, trail, hparts⟩ := exists_parts h hne
  have hlength := hparts.length_eq
  have hpos := hparts.pos
  obtain ⟨spaces, hlead, hspaces⟩ := hparts.walk_lead (Nat.lt_succ_self s.length)
  obtain ⟨trail, rest, rfl, hten, hrest⟩ := exists_line trail
  obtain ⟨htrailAt, hrestAt⟩ := chars_append.mp hparts.trail_chars
  rw [List.length_append] at hlength
  -- the line ends behind its blanks
  have hchars : ∀ b ∈ core isspace s ++ trail, (b ≠ 0 && b ≠ 10) = true := by
    intro b hb
    rw [Bool.and_eq_true, decide_eq_true_iff, decide_eq_true_iff]
    rcases List.mem_append.mp hb with hb | hb
    · exact ⟨fun hzero => hparts.nonzero (hzero ▸ hb), fun hnl => hline (hnl ▸ hb)⟩
    · exact ⟨(hparts.trail_blank b (List.mem_append_left _ hb)).1, hten b hb⟩
  have hend : mem (src + lead.length + (core isspace s ++ trail).length) = 0
      ∨ mem (src + lead.length + (core isspace s ++ trail).length) = 10 := by
    rw [List.length_append]
    cases rest with
    | nil =>
        left
        rw [← h.terminator]
        congr 1
        rw [List.length_nil] at hlength
        omega
    | cons b rest =>
        right
        rw [← hrest b rfl, ← hrestAt.1]
        congr 1
        omega
  obtain ⟨chars, hc, hchars'⟩ := @walkUp_chars mem (fun b => b ≠ 0 && b ≠ 10) (s.length + 1) _
    (core isspace s ++ trail) (chars_append.mpr ⟨hparts.core_chars, htrailAt⟩) hchars
    (by rcases hend with hend | hend <;> rw [hend] <;> rfl)
    (by rw [List.length_append]; omega)
  obtain ⟨blanks, htrail, hblanks⟩ := @walkDown_chars mem isspace (some (src + lead.length)) (s.length + 1) _ trail
    htrailAt (fun b hb => (hparts.trail_blank b (List.mem_append_left _ hb)).2)
    (fun a hlow _ heq => by cases heq; omega) (.inr hparts.last) (by omega)
  rw [List.length_append] at hc hchars'
  have hbehind : src + lead.length + (core isspace s).length + trail.length
      = src + lead.length + (((core isspace s).length + trail.length : Nat) : Int) := by
    omega
  rw [hbehind] at htrail
  refine ⟨s.length + 1, _, (Scrc.trim_eq_some (start_ne_zero h (by omega))).mpr
    ⟨_, _, _, _, _, _, hlead, hc, htrail, rfl⟩, ?_, ?_⟩
  · intro a ha
    rcases List.mem_append.mp ha with ha | ha
    · rcases List.mem_append.mp ha with ha | ha
      · rcases List.mem_append.mp ha with ha | ha
        · rcases List.mem_cons.mp ha with rfl | ha
          · omega
          · exact hspaces a ha
        · have hbounds := hchars' a ha
          omega
      · have hbounds := hblanks a ha
        omega
    · rw [List.mem_singleton.mp ha]
      omega
  · dsimp only
    rw [Int.sub_add_cancel]
    exact hparts.core_chars.cut hparts.nonzero

/-! ### Strings that it leaves -/

/-- The walk back over a blank string ends in front of it, at an address that it reads. -/
theorem walkDown_blank {go : UInt8 → Bool} {stop : Option Int} {fuel : Nat} {last : Int} {blanks : List Int}
    (h : Chars mem src s) (hgo : ∀ b ∈ s, go b = true) (hstop : ∀ a < src + s.length, stop ≠ some a)
    (hwalk : walkDown mem stop go fuel (src + s.length - 1) = some (last, blanks)) :
    last < src ∧ last ∈ blanks := by
  obtain ⟨hle, hend, -⟩ := walkDown_spec hwalk
  obtain ⟨hnot, hread⟩ := hend.resolve_left (hstop last (by omega))
  refine ⟨?_, hread⟩
  by_contra hlt
  rw [hgo _ (h.mem_of_lt (by omega) (by omega))] at hnot
  cases hnot

theorem not_inside_blank (v : TrimVersion) (h : StringAt mem src s) (hpos : 0 < s.length)
    (hblank : ∀ b ∈ s, v.blank b = true) : ¬ v.Inside mem src s := by
  rintro ⟨fuel, t, htrim, htouched, -⟩
  have hstart := start_ne_zero h hpos
  have hgo : ∀ b ∈ s, (b ≠ 0 && v.blank b) = true := by
    intro b hb
    rw [Bool.and_eq_true, decide_eq_true_iff]
    exact ⟨fun hzero => h.nonzero (hzero ▸ hb), hblank b hb⟩
  cases v with
  | client =>
      obtain ⟨first, spaces, c, chars, last, blanks, hfirst, hc, hlast, rfl⟩ := (Scrc.trim_eq_some hstart).mp htrim
      obtain rfl := walkUp_end h.chars hgo (by rw [h.terminator]; rfl) hfirst
      have hend : c = src + s.length := by
        obtain ⟨hle, -, hbetween⟩ := walkUp_spec hc
        by_contra hne
        have hterminator := hbetween _ (Int.le_refl _) (by omega)
        rw [h.terminator] at hterminator
        cases hterminator
      rw [hend] at hlast
      obtain ⟨hlt, hread⟩ := walkDown_blank h.chars hblank (fun a ha heq => by cases heq; omega) hlast
      have hbounds := htouched last (List.mem_append_left _ (List.mem_append_right _ hread))
      omega
  | lexer =>
      obtain ⟨first, spaces, last, blanks, -, hlast, rfl⟩ := (Hquery.trim_eq_some hstart hpos).mp htrim
      obtain ⟨hlt, hread⟩ := walkDown_blank h.chars hgo (by intro a _; exact nofun) hlast
      have hbounds := htouched last (List.mem_append_left _ (List.mem_append_right _ hread))
      omega

/-- Behind a line end inside of the core nothing is returned. -/
theorem not_inside_line (h : StringAt mem src s) (hline : 10 ∈ core isspace s) :
    ¬ TrimVersion.client.Inside mem src s := by
  rintro ⟨fuel, t, htrim, -, hresult⟩
  obtain ⟨lead, trail, hparts⟩ := exists_parts h (List.ne_nil_of_mem hline)
  have hlength := hparts.length_eq
  have hpos := hparts.pos
  obtain ⟨first, spaces, c, chars, last, blanks, hfirst, hc, hlast, rfl⟩ :=
    (Scrc.trim_eq_some (start_ne_zero h (by omega))).mp htrim
  have hgo : ∀ b ∈ lead, (b ≠ 0 && isspace b) = true := by
    intro b hb
    rw [Bool.and_eq_true, decide_eq_true_iff]
    exact hparts.lead_blank b hb
  obtain rfl := walkUp_end hparts.lead_chars hgo (by rw [hparts.first, Bool.and_false]) hfirst
  obtain ⟨left, right, hsplit⟩ := List.append_of_mem hline
  have hcore := hparts.core_chars
  rw [hsplit] at hcore
  have hten : mem (src + lead.length + left.length) = 10 := (chars_append.mp hcore).2.1
  obtain ⟨hle, hstop, hbetween⟩ := walkUp_spec hc
  have hend : c ≤ src + lead.length + left.length := by
    by_contra hlt
    have hgo := hbetween _ (by omega) (Int.not_le.mp hlt)
    rw [hten] at hgo
    cases hgo
  have hfirst : src + lead.length < c := by
    by_contra hge
    rw [show c = src + lead.length by omega, Bool.and_eq_false_iff, decide_eq_false_iff_not,
      decide_eq_false_iff_not, not_not, not_not] at hstop
    rcases hstop with hzero | hnl
    · exact hparts.nonzero (hzero ▸ hparts.core_chars.mem_of_lt (Int.le_refl _) (by omega))
    · have hblank := hparts.first
      rw [hnl] at hblank
      cases hblank
  obtain ⟨hlow, -, hback⟩ := walkDown_spec hlast
  have hhigh : src + lead.length ≤ last := by
    by_contra hlt
    exact (hback _ (Int.not_le.mp hlt) (by omega)).2 rfl
  have hlength : (core isspace s).length = left.length + (right.length + 1) := by
    rw [hsplit, List.length_append, List.length_cons]
  change StringAt (Function.update mem (last + 1) 0) (src + lead.length) (core isspace s) at hresult
  have hmem : Function.update mem (last + 1) 0 (last + 1) ∈ core isspace s :=
    hresult.chars.mem_of_lt (by omega) (by omega)
  rw [Function.update_self] at hmem
  exact hresult.nonzero hmem

/-- **`trim` stays inside its string** and finds its core exactly where the string is empty, or has a character that is
not blank, and for the client library no line end stands between two such characters. -/
theorem stays_inside_iff (v : TrimVersion) (h : StringAt mem src s) :
    v.Inside mem src s ↔ s = [] ∨ core v.blank s ≠ [] ∧ (v = .client → 10 ∉ core v.blank s) := by
  constructor
  · intro hinside
    rcases List.eq_nil_or_concat' s with rfl | hne
    · exact .inl rfl
    · refine .inr ⟨?_, ?_⟩
      · intro hnil
        have hpos : 0 < s.length := by
          obtain ⟨init, b, rfl⟩ := hne
          rw [List.length_append]
          exact Nat.lt_add_left _ Nat.one_pos
        exact not_inside_blank v h hpos (core_eq_nil_iff.mp hnil) hinside
      · rintro rfl hline
        exact not_inside_line h hline hinside
  · rintro (rfl | ⟨hne, hline⟩)
    · exact inside_nil v h
    · cases v with
      | client => exact inside_client h hne (hline rfl)
      | lexer => exact inside_lexer h hne

/-- The string ` a` at address 0. -/
def blankA : Int → UInt8 := fun a => if a = 0 then 32 else if a = 1 then 97 else 0

theorem blankA_stringAt : StringAt blankA 0 [32, 97] where
  chars := ⟨rfl, rfl, trivial⟩
  terminator := rfl
  nonzero := by decide

theorem inside_blankA : TrimVersion.lexer.Inside blankA 0 [32, 97] :=
  (stays_inside_iff .lexer blankA_stringAt).mpr (.inr ⟨by decide, nofun⟩)

/-- One blank at address 0, behind the character `:`. -/
def oneBlank : Int → UInt8 := fun a => if a = -1 then 58 else if a = 0 then 32 else 0

/-- Both versions read the character in front of a string that is one blank. -/
theorem not_inside_oneBlank : StringAt oneBlank 0 [32] ∧ ∀ v : TrimVersion, ¬ v.Inside oneBlank 0 [32] := by
  have h : StringAt oneBlank 0 [32] := { chars := ⟨rfl, trivial⟩, terminator := rfl, nonzero := by decide }
  refine ⟨h, ?_⟩
  intro v
  apply not_inside_blank v h Nat.one_pos
  intro b hb
  rw [List.mem_singleton.mp hb]
  cases v <;> rfl

end TrimVersion

/-! ### The receive buffer -/

section Buffer

variable {mem : Int → UInt8} {rbuf rbuf' : Nat → UInt8} {go : UInt8 → Bool} {stop : Option Int}
  {fuel fuel' left p q src src' : Nat} {a : Int} {result : Int × List Int}

/-- The receive buffer as memory. -/
def ofBuffer (rbuf : Nat → UInt8) : Int → UInt8 := fun a => rbuf a.toNat

theorem walkUp_mono (hle : fuel ≤ fuel') (h : walkUp mem go fuel a = some result) :
    walkUp mem go fuel' a = some result := by
  induction fuel generalizing fuel' a result with
  | zero => cases h
  | succ fuel ih =>
      obtain ⟨fuel', rfl⟩ := Nat.exists_eq_succ_of_ne_zero (Nat.ne_zero_of_lt hle)
      rw [Nat.succ_eq_add_one, walkUp]
      rw [walkUp] at h
      by_cases hgo : go (mem a) = true
      · rw [if_pos hgo] at h ⊢
        obtain ⟨found, hwalk, h⟩ := Option.bind_eq_some_iff.mp h
        exact Option.bind_eq_some_iff.mpr ⟨found, ih (Nat.le_of_succ_le_succ hle) hwalk, h⟩
      · rw [if_neg hgo] at h ⊢
        exact h

theorem walkDown_mono (hle : fuel ≤ fuel') (h : walkDown mem stop go fuel a = some result) :
    walkDown mem stop go fuel' a = some result := by
  induction fuel generalizing fuel' a result with
  | zero => cases h
  | succ fuel ih =>
      obtain ⟨fuel', rfl⟩ := Nat.exists_eq_succ_of_ne_zero (Nat.ne_zero_of_lt hle)
      rw [Nat.succ_eq_add_one, walkDown]
      rw [walkDown] at h
      by_cases hat : stop = some a
      · rw [if_pos hat] at h ⊢
        exact h
      · rw [if_neg hat] at h ⊢
        by_cases hgo : go (mem a) = true
        · rw [if_pos hgo] at h ⊢
          obtain ⟨found, hwalk, h⟩ := Option.bind_eq_some_iff.mp h
          exact Option.bind_eq_some_iff.mpr ⟨found, ih (Nat.le_of_succ_le_succ hle) hwalk, h⟩
        · rw [if_neg hgo] at h ⊢
          exact h

theorem walkUp_of_forward (h : forward rbuf go left p = .ok q) :
    ∃ reads, walkUp (ofBuffer rbuf) go left p = some ((q : Int), reads) := by
  induction left generalizing p with
  | zero => cases h
  | succ left ih =>
      rw [forward] at h
      rw [walkUp]
      by_cases hgo : go (rbuf p) = true
      · rw [if_pos hgo] at h
        obtain ⟨reads, hwalk⟩ := ih h
        refine ⟨p :: reads, ?_⟩
        rw [if_pos (show go (ofBuffer rbuf p) = true from hgo), ← Int.natCast_add_one, hwalk]
        rfl
      · rw [if_neg hgo] at h
        obtain rfl : q = p := (Except.ok.inj h).symm
        exact ⟨[(q : Int)], if_neg (show ¬ go (ofBuffer rbuf q) = true from hgo)⟩

theorem walkDown_of_backward {c : Nat} (h : backward rbuf src c = .ok q) :
    ∃ reads, walkDown (ofBuffer rbuf) (some (src : Int)) isspace c ((c : Int) - 1) = some ((q : Int), reads) := by
  induction c with
  | zero => cases h
  | succ c ih =>
      rw [backward] at h
      rw [walkDown, show ((c + 1 : Nat) : Int) - 1 = c by omega]
      by_cases hgo : c ≠ src ∧ isspace (rbuf c) = true
      · rw [if_pos hgo] at h
        obtain ⟨reads, hwalk⟩ := ih h
        refine ⟨c :: reads, ?_⟩
        have hne : ¬ some (src : Int) = some (c : Int) := by
          rintro ⟨⟩
          exact hgo.1 rfl
        rw [if_neg hne, if_pos (show isspace (ofBuffer rbuf c) = true from hgo.2), hwalk]
        rfl
      · rw [if_neg hgo] at h
        obtain rfl : c = q := Except.ok.inj h
        by_cases heq : c = src
        · exact ⟨[], if_pos (by rw [heq])⟩
        · have hne : ¬ some (src : Int) = some (c : Int) := fun hsome =>
            heq (Int.ofNat_inj.mp (Option.some.inj hsome)).symm
          have hnot : ¬ isspace (ofBuffer rbuf c) = true := fun hspace => hgo ⟨heq, hspace⟩
          exact ⟨[(c : Int)], by rw [if_neg hne, if_neg hnot]; rfl⟩

/-- The `trim` of a header line is the one of the client library, on the receive buffer. -/
theorem trim_of_buffer (h : trim rbuf src = .ok (rbuf', src')) :
    ∃ fuel t, Scrc.trim (ofBuffer rbuf) fuel src = some t ∧ t.ret = src' ∧ ∀ i : Nat, t.mem i = rbuf' i := by
  rw [trim] at h
  split at h
  · cases h
  · split at h
    · rename_i hzero
      cases h
      exact ⟨0, ⟨ofBuffer rbuf, src, [(src : Int)]⟩, if_pos hzero, rfl, fun _ => rfl⟩
    · rename_i hne
      obtain ⟨first, hfirst, h⟩ := bind_eq_ok.mp h
      obtain ⟨c, hc, h⟩ := bind_eq_ok.mp h
      obtain ⟨last, hlast, h⟩ := bind_eq_ok.mp h
      cases h
      have hgo : (fun b => b ≠ 0 && isspace b : UInt8 → Bool) = isspace := by
        funext b
        by_cases hb : b = 0
        · rw [hb]
          rfl
        · rw [decide_eq_true hb, Bool.true_and]
      obtain ⟨spaces, hspaces⟩ := walkUp_of_forward hfirst
      obtain ⟨chars, hchars⟩ := walkUp_of_forward hc
      obtain ⟨blanks, hblanks⟩ := walkDown_of_backward hlast
      have hup := walkUp_mono (Nat.le_add_right (fullsz - src) (fullsz - src' + c)) hspaces
      have hline := walkUp_mono (show fullsz - src' ≤ fullsz - src + (fullsz - src' + c) by omega) hchars
      have hdown := walkDown_mono (show c ≤ fullsz - src + (fullsz - src' + c) by omega) hblanks
      rw [← hgo] at hup
      refine ⟨fullsz - src + (fullsz - src' + c), _, (Scrc.trim_eq_some hne).mpr
        ⟨_, _, _, _, _, _, hup, hline, hdown, rfl⟩, rfl, ?_⟩
      intro i
      dsimp only
      by_cases hi : i = last + 1
      · rw [hi, Int.natCast_add_one, Function.update_self, Function.update_self]
      · rw [Function.update_of_ne hi, Function.update_of_ne (by omega)]
        rfl

end Buffer

end Scroller
