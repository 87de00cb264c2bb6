import Scroller.Lib.Decimal
import Scroller.Proof.QuotedStrings

/-!
# The tokens of a text

The first token of a text where it starts with blanks, a word, an operator or a number. What follows does not matter
as long as no match goes into it.
-/

namespace Scroller.Hquery

open Regex

/-! ### One token after the other -/

section Steps

variable {memory : Nat → Nat → UInt8} {s u rest : List UInt8} {i n : Nat} {rule : Rule}

theorem scan_fuel {fuel fuel' : Nat} (h : s.length < fuel) (h' : s.length < fuel') :
    scan memory fuel s = scan memory fuel' s := by
  induction fuel generalizing s fuel' with
  | zero => exact absurd h (Nat.not_lt_zero _)
  | succ fuel ih =>
      obtain ⟨fuel', rfl⟩ := Nat.exists_eq_succ_of_ne_zero (Nat.ne_zero_of_lt h')
      rw [Nat.succ_eq_add_one, scan, scan]
      cases hlongest : longest patterns s with
      | none => rfl
      | some found =>
          obtain ⟨i, n⟩ := found
          have hpos := (longest_isLongest hlongest).pos
          have hle := (longest_isLongest hlongest).le
          have hdrop : (s.drop n).length < fuel := by
            rw [List.length_drop]
            omega
          have hdrop' : (s.drop n).length < fuel' := by
            rw [List.length_drop]
            omega
          dsimp only
          cases rules[i]? with
          | none => rfl
          | some rule =>
              dsimp only
              rw [ih hdrop hdrop']

theorem tokenize_step (h : IsLongest patterns s i n) (hrule : rules[i]? = some rule) :
    tokenize memory s = (do
      let token ← rule.action (memory s.length) (s.take n)
      let tokens ← tokenize memory (s.drop n)
      return token.toList ++ tokens) := by
  have hpos := h.pos
  have hle := h.le
  have hdrop : (s.drop n).length < s.length := by
    rw [List.length_drop]
    omega
  rw [tokenize, scan_step h hrule, scan_fuel hdrop (Nat.lt_succ_self _), tokenize]

theorem tokenize_append (h : IsLongest patterns (u ++ rest) i u.length) (hrule : rules[i]? = some rule) :
    tokenize memory (u ++ rest) = (do
      let token ← rule.action (memory (u ++ rest).length) u
      let tokens ← tokenize memory rest
      return token.toList ++ tokens) := by
  rw [tokenize_step h hrule, List.take_left, List.drop_left]

end Steps

/-! ### Matches of more than one character -/

theorem lower_cases {c k : UInt8} (h : lower c = k) : c = k ∨ 97 ≤ k ∧ k ≤ 122 := by
  unfold lower at h
  split at h
  · next hupper =>
    obtain ⟨hle, hge⟩ := hupper
    refine .inr ?_
    rw [UInt8.le_iff_toNat_le] at hle hge
    rw [← h, UInt8.le_iff_toNat_le, UInt8.le_iff_toNat_le, UInt8.toNat_add]
    change 65 ≤ c.toNat at hle
    change c.toNat ≤ 90 at hge
    change 97 ≤ (c.toNat + 32) % 2 ^ 8 ∧ (c.toNat + 32) % 2 ^ 8 ≤ 122
    omega
  · exact .inl h

theorem alpha_of_lower {c : UInt8} (h : 97 ≤ lower c ∧ lower c ≤ 122) : ALPHA c = true := by
  unfold lower at h
  unfold ALPHA
  split at h
  · next hupper => simp [hupper]
  · simp [h]

theorem alnum_of_alpha {c : UInt8} (h : ALPHA c = true) : ALNUM c = true := by
  unfold ALNUM
  rw [h, Bool.or_true]

theorem alnum_of_num {c : UInt8} (h : NUM c = true) : ALNUM c = true := by
  unfold ALNUM
  rw [h, Bool.true_or]

theorem num_iff {c : UInt8} : NUM c = true ↔ 48 ≤ c.toNat ∧ c.toNat ≤ 57 := by
  rw [NUM, Bool.and_eq_true, decide_eq_true_iff, decide_eq_true_iff]
  exact Iff.rfl

theorem not_alpha_of_num {c : UInt8} (h : NUM c = true) : ALPHA c = false := by
  have hrange := num_iff.mp h
  rw [← Bool.not_eq_true, ALPHA]
  simp only [Bool.or_eq_true, Bool.and_eq_true, decide_eq_true_iff, UInt8.le_iff_toNat_le, ← UInt8.toNat_inj]
  change ¬ ((97 ≤ c.toNat ∧ c.toNat ≤ 122 ∨ 65 ≤ c.toNat ∧ c.toNat ≤ 90) ∨ c.toNat = 95)
  omega

theorem matches_plus {p : UInt8 → Bool} {u : List UInt8} :
    (plus p).Matches u ↔ u ≠ [] ∧ ∀ c ∈ u, p c = true := by
  unfold plus
  rw [matches_seq]
  constructor
  · rintro ⟨v, w, rfl, hv, hw⟩
    obtain ⟨a, rfl, ha⟩ := matches_cls.mp hv
    refine ⟨List.cons_ne_nil _ _, ?_⟩
    rw [List.singleton_append, List.forall_mem_cons]
    exact ⟨ha, matches_star_cls.mp hw⟩
  · rintro ⟨hne, hall⟩
    obtain ⟨a, w, rfl⟩ := List.exists_cons_of_ne_nil hne
    rw [List.forall_mem_cons] at hall
    exact ⟨[a], w, rfl, .cls hall.1, matches_star_cls.mpr hall.2⟩

theorem matches_STRING {c : UInt8} {u : List UInt8} :
    STRING.Matches (c :: u) ↔ ALPHA c = true ∧ ∀ d ∈ u, ALNUM d = true := by
  unfold STRING
  rw [matches_seq]
  constructor
  · rintro ⟨v, w, hvw, hv, hw⟩
    obtain ⟨a, rfl, ha⟩ := matches_cls.mp hv
    obtain ⟨rfl, rfl⟩ := List.cons.inj hvw
    exact ⟨ha, matches_star_cls.mp hw⟩
  · rintro ⟨hc, hall⟩
    exact ⟨[c], u, rfl, .cls hc, matches_star_cls.mpr hall⟩

/-- A number: the digit zero, or digits of which the first is another one. -/
def Numeral (u : List UInt8) : Prop :=
  u = [48] ∨ ∃ c v, u = c :: v ∧ 49 ≤ c ∧ c ≤ 57 ∧ ∀ d ∈ v, NUM d = true

theorem Numeral.num {u : List UInt8} (h : Numeral u) : u ≠ [] ∧ ∀ d ∈ u, NUM d = true := by
  obtain rfl | ⟨c, v, rfl, hle, hge, hall⟩ := h
  · exact ⟨List.cons_ne_nil _ _, List.forall_mem_singleton.mpr rfl⟩
  · refine ⟨List.cons_ne_nil _ _, List.forall_mem_cons.mpr ⟨?_, hall⟩⟩
    have hle : 48 ≤ c := UInt8.le_trans (by decide) hle
    simp [NUM, hle, hge]

theorem matches_INTEGER {u : List UInt8} :
    INTEGER.Matches u ↔ ∃ v, (u = 45 :: v ∨ u = v) ∧ Numeral v := by
  have hdigits : ∀ v, (Regex.alt (.cls (· = 48)) (.seq (.cls fun c => 49 ≤ c && c ≤ 57) (.star (.cls NUM)))).Matches v
      ↔ Numeral v := by
    intro v
    rw [matches_alt, matches_cls, matches_seq]
    refine or_congr ?_ ?_
    · constructor
      · rintro ⟨a, rfl, ha⟩
        rw [of_decide_eq_true ha]
      · rintro rfl
        exact ⟨48, rfl, rfl⟩
    · constructor
      · rintro ⟨x, y, rfl, hx, hy⟩
        obtain ⟨a, rfl, ha⟩ := matches_cls.mp hx
        rw [Bool.and_eq_true, decide_eq_true_iff, decide_eq_true_iff] at ha
        exact ⟨a, y, rfl, ha.1, ha.2, matches_star_cls.mp hy⟩
      · rintro ⟨c, y, rfl, hle, hge, hall⟩
        exact ⟨[c], y, rfl, .cls (by simp [hle, hge]), matches_star_cls.mpr hall⟩
  unfold INTEGER
  rw [matches_seq]
  constructor
  · rintro ⟨x, v, rfl, hx, hv⟩
    refine ⟨v, ?_, (hdigits v).mp hv⟩
    rcases matches_alt.mp hx with hx | hx
    · obtain ⟨a, rfl, ha⟩ := matches_cls.mp hx
      rw [of_decide_eq_true ha]
      exact .inl rfl
    · rw [matches_eps.mp hx]
      exact .inr rfl
  · rintro ⟨v, rfl | rfl, hv⟩
    · exact ⟨[45], v, rfl, .left (.cls rfl), (hdigits v).mpr hv⟩
    · exact ⟨[], _, rfl, .right .eps, (hdigits _).mpr hv⟩

/-- The first characters of the operators of two characters, and of `$$`. -/
def openers : List UInt8 := [33, 36, 60, 62, 124]

/-- The characters behind them. -/
def closers : List UInt8 := [36, 61, 62, 124]

/-- The character `c` and characters behind it, as patterns match them together. -/
inductive Joined (c : UInt8) (u : List UInt8) : Prop
  | spaces : SPACE c = true → (∀ d ∈ u, SPACE d = true) → Joined c u
  | comment : c = 45 → u.head? = some 45 → (10 : UInt8) ∉ u → Joined c u
  | negative : c = 45 → (∀ d ∈ u, NUM d = true) → Joined c u
  | letters : ALNUM c = true → (∀ d ∈ u, ALNUM d = true) → Joined c u
  | operator : c ∈ openers → (∀ d ∈ u, d ∈ closers) → Joined c u
  | quoted (q : Quote) : c = q.char → Joined c u

theorem joined_of_word {k : List UInt8 × Token} (hk : k ∈ words) {c : UInt8} {u : List UInt8}
    (h : (wordRule k).pattern.Matches (c :: u)) (hu : u ≠ []) : Joined c u := by
  have hall : ∀ k ∈ words, k.1.length ≤ 1
      ∨ (openers.any fun d => k.1.head? = some d) = true ∧ (k.1.tail.all fun d => closers.contains d) = true
      ∨ (k.1.all fun d => 97 ≤ d ∧ d ≤ 122) = true := by decide
  have hlower := map_lower_of_matches h
  obtain hone | ⟨hopener, hclosers⟩ | hletters := hall k hk
  · rw [← hlower, List.length_map, List.length_cons] at hone
    have hpos := List.length_pos_of_ne_nil hu
    omega
  · obtain ⟨d, hd, hhead⟩ := List.any_eq_true.mp hopener
    rw [decide_eq_true_iff, ← hlower, List.map_cons, List.head?_cons, Option.some.injEq] at hhead
    have hnone : (openers.all fun d => ¬ (97 ≤ d ∧ d ≤ 122)) = true := by decide
    have hc := (lower_cases hhead).resolve_right (of_decide_eq_true (List.all_eq_true.mp hnone d hd))
    refine .operator (hc ▸ hd) fun x hx => ?_
    rw [← hlower, List.map_cons, List.tail_cons] at hclosers
    have hcloser : lower x ∈ closers :=
      List.contains_iff_mem.mp (List.all_eq_true.mp hclosers _ (List.mem_map_of_mem hx))
    have hnone : (closers.all fun d => ¬ (97 ≤ d ∧ d ≤ 122)) = true := by decide
    rw [(lower_cases rfl).resolve_right (of_decide_eq_true (List.all_eq_true.mp hnone _ hcloser))]
    exact hcloser
  · have halnum : ∀ x ∈ c :: u, ALNUM x = true := by
      intro x hx
      refine alnum_of_alpha (alpha_of_lower (of_decide_eq_true (List.all_eq_true.mp hletters _ ?_)))
      rw [← hlower]
      exact List.mem_map_of_mem hx
    rw [List.forall_mem_cons] at halnum
    exact .letters halnum.1 halnum.2

theorem joined_of_quoted {q : Quote} {c : UInt8} {u : List UInt8} (h : (quoted q.char).Matches (c :: u)) :
    Joined c u := by
  obtain ⟨w, hw, -⟩ := Quote.matches_quoted.mp h
  obtain ⟨rfl, -⟩ := List.cons.inj hw
  exact .quoted q rfl

/-- A pattern that matches more than a character matches characters that go together. -/
theorem joined_of_matches {r : Regex UInt8} (hr : r ∈ patterns) {c : UInt8} {u : List UInt8}
    (h : r.Matches (c :: u)) (hu : u ≠ []) : Joined c u := by
  obtain ⟨rule, hrule, rfl⟩ := List.mem_map.mp hr
  have hsingle : ∀ p : UInt8 → Bool, ¬ (Regex.cls p).Matches (c :: u) := by
    intro p hmatch
    obtain ⟨a, ha, -⟩ := matches_cls.mp hmatch
    exact hu (List.cons.inj ha).2
  rcases List.mem_append.mp hrule with hrule | hrule
  · rcases List.mem_append.mp hrule with hrule | hrule
    · simp only [firstRules, List.mem_cons, List.not_mem_nil, or_false] at hrule
      rcases hrule with rfl | rfl
      · have hspaces := (matches_plus.mp h).2
        rw [List.forall_mem_cons] at hspaces
        exact .spaces hspaces.1 hspaces.2
      · obtain ⟨v, w, hvw, hv, hw⟩ := matches_seq.mp h
        have hlower : v.map lower = [45, 45] := map_lower_of_matches hv
        obtain ⟨a, v, rfl, ha, hlower⟩ := List.map_eq_cons_iff.mp hlower
        obtain ⟨b, v, rfl, hb, hnil⟩ := List.map_eq_cons_iff.mp hlower
        obtain ⟨rfl, rfl⟩ := List.cons.inj hvw
        rw [List.map_eq_nil_iff.mp hnil]
        have hminus := (lower_cases hb).resolve_right (by decide)
        refine .comment ((lower_cases ha).resolve_right (by decide)) (congrArg some hminus) fun hnewline => ?_
        rcases List.mem_cons.mp hnewline with hb | hmem
        · exact absurd (hb.trans hminus) (by decide)
        · exact absurd (matches_star_cls.mp hw 10 hmem) (by decide)
    · obtain ⟨k, hk, rfl⟩ := List.mem_map.mp hrule
      exact joined_of_word hk h hu
  · simp only [lastRules, List.mem_cons, List.not_mem_nil, or_false] at hrule
    rcases hrule with rfl | rfl | rfl | rfl | rfl | rfl | rfl | rfl
    · obtain ⟨v, hv, hnumeral⟩ := matches_INTEGER.mp h
      have hnum := hnumeral.num.2
      rcases hv with hv | rfl
      · obtain ⟨rfl, rfl⟩ := List.cons.inj hv
        exact .negative rfl hnum
      · rw [List.forall_mem_cons] at hnum
        exact .letters (alnum_of_num hnum.1) fun d hd => alnum_of_num (hnum.2 d hd)
    · obtain ⟨halpha, halnum⟩ := matches_STRING.mp h
      exact .letters (alnum_of_alpha halpha) halnum
    · exact joined_of_quoted (q := .double) h
    · exact joined_of_quoted (q := .single) h
    · have hlower := map_lower_of_matches h
      exact absurd (List.map_eq_nil_iff.mp (List.cons.inj hlower).2) hu
    · have hlower : (c :: u).map lower = [36, 36] := map_lower_of_matches h
      obtain ⟨hc, hlower⟩ := List.cons.inj hlower
      obtain ⟨d, v, rfl, hd, hv⟩ := List.map_eq_cons_iff.mp hlower
      rw [List.map_eq_nil_iff.mp hv, (lower_cases hc).resolve_right (by decide),
        (lower_cases hd).resolve_right (by decide)]
      exact .operator (by decide) (List.forall_mem_singleton.mpr (by decide))
    · exact absurd h (hsingle _)
    · exact absurd h (hsingle _)

theorem space_cases {c : UInt8} (h : SPACE c = true) : c = 32 ∨ c = 9 ∨ c = 13 := by
  simpa [SPACE, or_assoc] using h

theorem openers_cases {c : UInt8} (h : c ∈ openers) : c = 33 ∨ c = 36 ∨ c = 60 ∨ c = 62 ∨ c = 124 := by
  simpa [openers] using h

section Joined

variable {c : UInt8} {u : List UInt8}

theorem Joined.space (h : Joined c u) (hc : SPACE c = true) : ∀ d ∈ u, SPACE d = true := by
  have hcases := space_cases hc
  cases h with
  | spaces _ hall => exact hall
  | comment h => subst h; exact absurd hc (by decide)
  | negative h => subst h; exact absurd hc (by decide)
  | letters h => rcases hcases with rfl | rfl | rfl <;> exact absurd h (by decide)
  | operator h => rcases hcases with rfl | rfl | rfl <;> exact absurd h (by decide)
  | quoted q h => subst h; cases q <;> exact absurd hc (by decide)

theorem Joined.minus (h : Joined 45 u) :
    u.head? = some 45 ∧ (10 : UInt8) ∉ u ∨ ∀ d ∈ u, NUM d = true := by
  cases h with
  | spaces h => exact absurd h (by decide)
  | comment _ hhead hnewline => exact .inl ⟨hhead, hnewline⟩
  | negative _ hall => exact .inr hall
  | letters h => exact absurd h (by decide)
  | operator h => exact absurd h (by decide)
  | quoted q h => cases q <;> exact absurd h (by decide)

theorem Joined.alnum (h : Joined c u) (hc : ALNUM c = true) : ∀ d ∈ u, ALNUM d = true := by
  cases h with
  | spaces h => rcases space_cases h with rfl | rfl | rfl <;> exact absurd hc (by decide)
  | comment h => subst h; exact absurd hc (by decide)
  | negative h => subst h; exact absurd hc (by decide)
  | letters _ hall => exact hall
  | operator h => rcases openers_cases h with rfl | rfl | rfl | rfl | rfl <;> exact absurd hc (by decide)
  | quoted q h => subst h; cases q <;> exact absurd hc (by decide)

end Joined

/-! ### The first token -/

section Tokens

variable {memory : Nat → Nat → UInt8} {u rest : List UInt8} {rule : Rule}

/-- The text does not go on with a letter or a digit. -/
def Apart (rest : List UInt8) : Prop := ∀ c ∈ rest.head?, ALNUM c = false

/-- The first rule that matches a word is taken for it where nothing longer matches. -/
theorem tokenize_rule {before after : List Rule} (hrules : rules = before ++ rule :: after) (hu : u ≠ [])
    (hmatch : rule.pattern.Matches u) (hbefore : ∀ r ∈ before, ¬ r.pattern.Matches u)
    (hmiss : ∀ t, t ≠ [] → t <+: rest → ∀ r ∈ patterns, ¬ r.Matches (u ++ t)) :
    tokenize memory (u ++ rest) = (do
      let token ← rule.action (memory (u ++ rest).length) u
      let tokens ← tokenize memory rest
      return token.toList ++ tokens) := by
  have hrule : rules[before.length]? = some rule := by
    rw [hrules, List.getElem?_append_right (Nat.le_refl _), Nat.sub_self]
    rfl
  refine tokenize_append (IsLongest.append (IsLongest.whole hu ⟨rule.pattern, ?_, hmatch⟩ ?_) hmiss) hrule
  · rw [patterns, List.getElem?_map, hrule]
    rfl
  · intro j hj r hr
    rw [patterns, List.getElem?_map, hrules, List.getElem?_append_left hj, Option.map_eq_some_iff] at hr
    obtain ⟨rule', hr, rfl⟩ := hr
    exact hbefore rule' (List.mem_of_getElem? hr)

theorem not_matches_of_not_joined {c : UInt8} (h : ∀ t, t ≠ [] → t <+: rest → ¬ Joined c (u ++ t)) :
    ∀ t, t ≠ [] → t <+: rest → ∀ r ∈ patterns, ¬ r.Matches (c :: u ++ t) := by
  intro t ht hprefix r hr hmatch
  exact h t ht hprefix (joined_of_matches hr hmatch (List.append_ne_nil_of_right_ne_nil _ ht))

/-- What stands in front of a text starts with its first character. -/
theorem head_of_prefix {t : List UInt8} (ht : t ≠ []) (h : t <+: rest) : ∃ c v, t = c :: v ∧ c ∈ rest.head? := by
  obtain ⟨c, v, rfl⟩ := List.exists_cons_of_ne_nil ht
  obtain ⟨w, rfl⟩ := h
  exact ⟨c, v, rfl, rfl⟩

/-! #### Blanks -/

def Blank (c : UInt8) : Prop := SPACE c = true ∨ c = 10

theorem tokenize_spaces {c : UInt8} (hc : SPACE c = true) (s : List UInt8) :
    tokenize memory (c :: s) = tokenize memory (s.dropWhile SPACE) := by
  have hspaces : ∀ d ∈ s.takeWhile SPACE, SPACE d = true := fun d hd => List.mem_takeWhile_imp hd
  have hmatch : (plus SPACE).Matches (c :: s.takeWhile SPACE) :=
    matches_plus.mpr ⟨List.cons_ne_nil _ _, List.forall_mem_cons.mpr ⟨hc, hspaces⟩⟩
  have hmiss : ∀ t, t ≠ [] → t <+: s.dropWhile SPACE → ¬ Joined c (s.takeWhile SPACE ++ t) := by
    intro t ht hprefix hjoined
    obtain ⟨d, v, rfl, hd⟩ := head_of_prefix ht hprefix
    have hspace : SPACE d = true := hjoined.space hc d (List.mem_append_right _ List.mem_cons_self)
    have hnot : SPACE d = false := by
      have hhead := List.head?_dropWhile_not SPACE s
      rwa [Option.mem_def.mp hd] at hhead
    cases hspace.symm.trans hnot
  have hstep := @tokenize_rule memory _ (s.dropWhile SPACE) _ [] _ rfl (List.cons_ne_nil c (s.takeWhile SPACE))
    hmatch nofun (not_matches_of_not_joined hmiss)
  rw [List.cons_append, List.takeWhile_append_dropWhile] at hstep
  rw [hstep]
  cases tokenize memory (s.dropWhile SPACE) <;> rfl

theorem tokenize_space {c : UInt8} (hc : SPACE c = true) (s : List UInt8) :
    tokenize memory (c :: s) = tokenize memory s := by
  rw [tokenize_spaces hc]
  cases s with
  | nil => rfl
  | cons d s =>
      rw [List.dropWhile_cons]
      split
      · next hd => rw [tokenize_spaces hd]
      · rfl

theorem tokenize_newline (s : List UInt8) : tokenize memory (10 :: s) = tokenize memory s := by
  have hstuck : (patterns.map (deriv 10)).all stuck = true := by decide
  have hfirst : (patterns.map (deriv 10)).findIdx? nullable = some 55 := by decide
  rw [tokenize_step (IsLongest.one (misses_of_stuck hstuck) hfirst) rfl, List.drop_one, List.tail_cons]
  cases tokenize memory s <;> rfl

theorem tokenize_blanks {b : List UInt8} (hb : ∀ c ∈ b, Blank c) (s : List UInt8) :
    tokenize memory (b ++ s) = tokenize memory s := by
  induction b with
  | nil => rfl
  | cons c b ih =>
      obtain ⟨hc, hrest⟩ := List.forall_mem_cons.mp hb
      rw [List.cons_append]
      rcases hc with hspace | rfl
      · rw [tokenize_space hspace, ih hrest]
      · rw [tokenize_newline, ih hrest]

/-! #### Operators and parentheses -/

/-- A character that no pattern matches together with others. -/
theorem tokenize_single {c : UInt8} {i : Nat} {k : List UInt8 × Token}
    (hstuck : (patterns.map (deriv c)).all stuck = true)
    (hfirst : (patterns.map (deriv c)).findIdx? nullable = some i) (hrule : rules[i]? = some (wordRule k))
    (s : List UInt8) :
    tokenize memory (c :: s) = (do
      let tokens ← tokenize memory s
      return k.2 :: tokens) :=
  tokenize_step (IsLongest.one (misses_of_stuck hstuck) hfirst) hrule

theorem tokenize_lparen (s : List UInt8) :
    tokenize memory (40 :: s) = (do
      let tokens ← tokenize memory s
      return .lparen :: tokens) :=
  tokenize_single (i := 39) (by decide) (by decide) rfl s

theorem tokenize_rparen (s : List UInt8) :
    tokenize memory (41 :: s) = (do
      let tokens ← tokenize memory s
      return .rparen :: tokens) :=
  tokenize_single (i := 40) (by decide) (by decide) rfl s

theorem tokenize_minus {s : List UInt8} (h : ∀ c ∈ s.head?, c ≠ 45 ∧ NUM c = false) :
    tokenize memory (45 :: s) = (do
      let tokens ← tokenize memory s
      return .additive .sub :: tokens) := by
  have hmiss : ∀ t, t ≠ [] → t <+: s → ¬ Joined 45 ([] ++ t) := by
    intro t ht hprefix hjoined
    obtain ⟨d, v, rfl, hd⟩ := head_of_prefix ht hprefix
    obtain ⟨hne, hnum⟩ := h d hd
    rcases hjoined.minus with hhead | hall
    · exact hne (Option.some.inj hhead.1)
    · cases hnum.symm.trans (hall d List.mem_cons_self)
  have hsingle : longest patterns [45] = some (45, 1) := by decide
  exact tokenize_append (u := [45]) (IsLongest.append (longest_isLongest hsingle) (not_matches_of_not_joined hmiss)) rfl

/-! #### Words -/

theorem matches_word {k u : List UInt8} : (word k).Matches u ↔ u.map lower = k := by
  refine ⟨map_lower_of_matches, ?_⟩
  rintro rfl
  induction u with
  | nil => exact .eps
  | cons c u ih => exact .seq (u := [c]) (.cls (decide_eq_true rfl)) ih

/-- The token of a word: a keyword, or else a name. -/
def wordToken (w : List UInt8) : Token :=
  match words.find? fun k => k.1 = w.map lower with
  | some k => k.2
  | none => .id w

theorem not_matches_firstRules {c : UInt8} (hc : ALNUM c = true) {w : List UInt8} :
    ∀ r ∈ firstRules, ¬ r.pattern.Matches (c :: w) := by
  intro r hr hmatch
  simp only [firstRules, List.mem_cons, List.not_mem_nil, or_false] at hr
  rcases hr with rfl | rfl
  · have hspace : SPACE c = true := (matches_plus.mp hmatch).2 c List.mem_cons_self
    rcases space_cases hspace with rfl | rfl | rfl <;> exact absurd hc (by decide)
  · obtain ⟨v, _, hv, hminus, -⟩ := matches_seq.mp hmatch
    have hlower : v.map lower = [45, 45] := map_lower_of_matches hminus
    obtain ⟨a, v, rfl, ha, -⟩ := List.map_eq_cons_iff.mp hlower
    obtain ⟨rfl, -⟩ := List.cons.inj hv
    rw [(lower_cases ha).resolve_right (by decide)] at hc
    exact absurd hc (by decide)

theorem tokenize_word {w : List UInt8} (hw : STRING.Matches w) (hrest : Apart rest) :
    tokenize memory (w ++ rest) = (do
      let tokens ← tokenize memory rest
      return wordToken w :: tokens) := by
  have hne : w ≠ [] := by
    rintro rfl
    cases nullable_iff.mpr hw
  obtain ⟨c, w', rfl⟩ := List.exists_cons_of_ne_nil hne
  obtain ⟨halpha, halnum⟩ := matches_STRING.mp hw
  have hmiss : ∀ t, t ≠ [] → t <+: rest → ¬ Joined c (w' ++ t) := by
    intro t ht hprefix hjoined
    obtain ⟨d, v, rfl, hd⟩ := head_of_prefix ht hprefix
    cases (hrest d hd).symm.trans
      (hjoined.alnum (alnum_of_alpha halpha) d (List.mem_append_right _ List.mem_cons_self))
  have hfirst := @not_matches_firstRules c (alnum_of_alpha halpha) w'
  unfold wordToken
  split
  · next k hfind =>
    obtain ⟨hk, before, after, hwords, hbefore⟩ := List.find?_eq_some_iff_append.mp hfind
    have hrules : rules = (firstRules ++ before.map wordRule) ++ wordRule k :: (after.map wordRule ++ lastRules) := by
      rw [rules, hwords, List.map_append, List.map_cons]
      simp only [List.append_assoc, List.cons_append]
    refine tokenize_rule hrules hne (matches_word.mpr (of_decide_eq_true hk).symm) ?_ (not_matches_of_not_joined hmiss)
    intro r hr hmatch
    rcases List.mem_append.mp hr with hr | hr
    · exact hfirst r hr hmatch
    · obtain ⟨k', hk', rfl⟩ := List.mem_map.mp hr
      have hne := hbefore k' hk'
      rw [Bool.not_eq_true', decide_eq_false_iff_not] at hne
      exact hne (matches_word.mp hmatch).symm
  · next hfind =>
    have hrules : ∃ integer after, rules = (firstRules ++ words.map wordRule ++ [⟨INTEGER, integer⟩])
        ++ ⟨STRING, fun _ yytext => return some (.id yytext)⟩ :: after := ⟨_, _, rfl⟩
    obtain ⟨integer, after, hrules⟩ := hrules
    refine tokenize_rule hrules hne hw ?_ (not_matches_of_not_joined hmiss)
    intro r hr hmatch
    rcases List.mem_append.mp hr with hr | hr
    · rcases List.mem_append.mp hr with hr | hr
      · exact hfirst r hr hmatch
      · obtain ⟨k, hk, rfl⟩ := List.mem_map.mp hr
        have hne := List.find?_eq_none.mp hfind k hk
        exact hne (decide_eq_true (matches_word.mp hmatch).symm)
    · rw [List.mem_singleton] at hr
      subst hr
      obtain ⟨v, hv, hnumeral⟩ := matches_INTEGER.mp hmatch
      rcases hv with hv | rfl
      · rw [(List.cons.inj hv).1] at halpha
        exact absurd halpha (by decide)
      · cases (not_alpha_of_num (hnumeral.num.2 c List.mem_cons_self)).symm.trans halpha

/-! #### Numbers -/

/-- The text of a number, behind its sign if it has one. -/
def integerText (neg : Bool) (n : Nat) : List UInt8 := (if neg then [45] else []) ++ Decimal.ofNat n

/-- What `atoll` makes of it. -/
def integerOf (neg : Bool) (n : Nat) : Int := if neg then -n else n

/-- The integer fits into the type of the token. -/
def FitsInt64 (v : Int) : Prop := -2 ^ 63 ≤ v ∧ v < 2 ^ 63

instance (v : Int) : Decidable (FitsInt64 v) := inferInstanceAs (Decidable (_ ∧ _))

theorem numeral_ofNat (n : Nat) : Numeral (Decimal.ofNat n) := by
  rcases Nat.eq_zero_or_pos n with rfl | hpos
  · exact .inl rfl
  · refine .inr ?_
    induction n using Decimal.induction_ofNat with
    | hlt n hn =>
        refine ⟨Decimal.digit n, [], Decimal.ofNat_of_lt hn, ?_, ?_, nofun⟩
        · rw [UInt8.le_iff_toNat_le, Decimal.toNat_digit hn]
          change 49 ≤ 48 + n
          omega
        · rw [UInt8.le_iff_toNat_le, Decimal.toNat_digit hn]
          change 48 + n ≤ 57
          omega
    | hle n hn ih =>
        obtain ⟨c, v, hv, hle, hge, hall⟩ := ih (by omega)
        refine ⟨c, v ++ [Decimal.digit (n % 10)], ?_, hle, hge, ?_⟩
        · rw [Decimal.ofNat_of_le hn, hv, List.cons_append]
        · intro d hd
          rcases List.mem_append.mp hd with hd | hd
          · exact hall d hd
          · rw [List.mem_singleton] at hd
            rw [hd, num_iff, Decimal.toNat_digit (Nat.mod_lt n (by decide))]
            omega

theorem foldl_ofNat (n : Nat) :
    (Decimal.ofNat n).foldl (fun (n : Nat) (d : UInt8) => 10 * n + (d.toNat - 48)) 0 = n := by
  induction n using Decimal.induction_ofNat with
  | hlt n hn =>
      rw [Decimal.ofNat_of_lt hn, List.foldl_cons, List.foldl_nil, Decimal.toNat_digit hn]
      omega
  | hle n hn ih =>
      rw [Decimal.ofNat_of_le hn, List.foldl_append, ih, List.foldl_cons, List.foldl_nil,
        Decimal.toNat_digit (Nat.mod_lt n (by decide))]
      omega

theorem strtol_integerText (neg : Bool) (n : Nat) :
    strtol (integerText neg n) = if FitsInt64 (integerOf neg n) then some (integerOf neg n, []) else none := by
  obtain ⟨hne, hnum⟩ := (numeral_ofNat n).num
  obtain ⟨c, v, hc⟩ := List.exists_cons_of_ne_nil hne
  have hcnum : NUM c = true := hnum c (hc ▸ List.mem_cons_self)
  have hdigits : (Decimal.ofNat n).takeWhile isdigit = Decimal.ofNat n := List.takeWhile_eq_self_iff.mpr hnum
  have hrest : (Decimal.ofNat n).dropWhile isdigit = [] := List.dropWhile_eq_nil_iff.mpr hnum
  have hrange := num_iff.mp hcnum
  have hspace : isspace c = false := by
    rw [← Bool.not_eq_true, isspace]
    simp only [Bool.or_eq_true, Bool.and_eq_true, decide_eq_true_iff, UInt8.le_iff_toNat_le, ← UInt8.toNat_inj]
    change ¬ (c.toNat = 32 ∨ 9 ≤ c.toNat ∧ c.toNat ≤ 13)
    omega
  unfold strtol
  cases neg with
  | true =>
      have hdrop : (integerText true n).dropWhile isspace = 45 :: Decimal.ofNat n := rfl
      simp only [hdrop, List.head?_cons, List.tail_cons, true_or, if_true, hdigits, hrest, if_neg hne, foldl_ofNat]
      rfl
  | false =>
      have hdrop : (integerText false n).dropWhile isspace = Decimal.ofNat n := by
        rw [integerText, if_neg Bool.false_ne_true, List.nil_append, hc, List.dropWhile_cons, hspace]
        rfl
      have hminus : (Decimal.ofNat n).head? ≠ some 45 := by
        rw [hc, List.head?_cons]
        intro h
        rw [Option.some.inj h] at hcnum
        exact absurd hcnum (by decide)
      have hplus : (Decimal.ofNat n).head? ≠ some 43 := by
        rw [hc, List.head?_cons]
        intro h
        rw [Option.some.inj h] at hcnum
        exact absurd hcnum (by decide)
      simp only [hdrop, hminus, hplus, or_self, if_false, hdigits, hrest, if_neg hne, foldl_ofNat]
      rfl

/-- The integer that the scanner makes of a number. -/
def integer (neg : Bool) (n : Nat) : Except Fault Int64 :=
  if FitsInt64 (integerOf neg n) then .ok (Int64.ofInt (integerOf neg n)) else .error .signedOverflow

theorem atoll_integerText (neg : Bool) (n : Nat) : atoll (integerText neg n) = integer neg n := by
  rw [atoll, strtol_integerText, integer]
  by_cases hfits : FitsInt64 (integerOf neg n)
  · rw [if_pos hfits, if_pos hfits]
    rfl
  · rw [if_neg hfits, if_neg hfits]

theorem matches_integerText (neg : Bool) (n : Nat) : INTEGER.Matches (integerText neg n) :=
  matches_INTEGER.mpr ⟨Decimal.ofNat n, by cases neg; exacts [.inr rfl, .inl rfl], numeral_ofNat n⟩

/-- No rule in front of the one for numbers matches a number. -/
theorem not_matches_integerText (neg : Bool) (n : Nat) :
    ∀ r ∈ firstRules ++ words.map wordRule, ¬ r.pattern.Matches (integerText neg n) := by
  obtain ⟨hne, hnum⟩ := (numeral_ofNat n).num
  obtain ⟨c, v, hc⟩ := List.exists_cons_of_ne_nil hne
  have hcnum : NUM c = true := hnum c (hc ▸ List.mem_cons_self)
  have hmem : c ∈ integerText neg n := List.mem_append_right _ (hc ▸ List.mem_cons_self)
  intro r hr hmatch
  rcases List.mem_append.mp hr with hr | hr
  · simp only [firstRules, List.mem_cons, List.not_mem_nil, or_false] at hr
    rcases hr with rfl | rfl
    · have hspace : SPACE c = true := (matches_plus.mp hmatch).2 c hmem
      rcases space_cases hspace with rfl | rfl | rfl <;> exact absurd hcnum (by decide)
    · obtain ⟨u, w, huw, hminus, -⟩ := matches_seq.mp hmatch
      have hlower : u.map lower = [45, 45] := map_lower_of_matches hminus
      obtain ⟨a, u, rfl, ha, hlower⟩ := List.map_eq_cons_iff.mp hlower
      obtain ⟨b, u, rfl, hb, -⟩ := List.map_eq_cons_iff.mp hlower
      rw [(lower_cases ha).resolve_right (by decide), (lower_cases hb).resolve_right (by decide)] at huw
      have hminus : (45 : UInt8) ∈ Decimal.ofNat n := by
        cases neg with
        | true =>
            rw [show Decimal.ofNat n = 45 :: (u ++ w) from (List.cons.inj huw).2]
            exact List.mem_cons_self
        | false =>
            rw [show Decimal.ofNat n = 45 :: 45 :: (u ++ w) from huw]
            exact List.mem_cons_self
      exact absurd (hnum 45 hminus) (by decide)
  · obtain ⟨k, hk, rfl⟩ := List.mem_map.mp hr
    have hnone : ∀ k ∈ words, (k.1.all fun d => !NUM d) = true := by decide
    have hlower : lower c = c := by
      have hrange := num_iff.mp hcnum
      exact if_neg fun hupper => absurd (show 65 ≤ c.toNat from hupper.1) (by omega)
    have hck : c ∈ k.1 := by
      rw [← matches_word.mp hmatch, ← hlower]
      exact List.mem_map_of_mem hmem
    have hnot := List.all_eq_true.mp (hnone k hk) c hck
    rw [hcnum] at hnot
    cases hnot

theorem tokenize_integer (neg : Bool) (n : Nat) (hrest : Apart rest) :
    tokenize memory (integerText neg n ++ rest) = (do
      let integer ← integer neg n
      let tokens ← tokenize memory rest
      return .vinteger integer :: tokens) := by
  obtain ⟨hne, hnum⟩ := (numeral_ofNat n).num
  obtain ⟨c, v, hc⟩ := List.exists_cons_of_ne_nil hne
  have hcnum : NUM c = true := hnum c (hc ▸ List.mem_cons_self)
  have hmiss : ∀ t, t ≠ [] → t <+: rest → ∀ r ∈ patterns, ¬ r.Matches (integerText neg n ++ t) := by
    intro t ht hprefix
    obtain ⟨d, t', rfl, hd⟩ := head_of_prefix ht hprefix
    have hnot : ALNUM d = false := hrest d hd
    intro r hr hmatch
    cases neg with
    | true =>
        have hjoined : Joined 45 (Decimal.ofNat n ++ d :: t') :=
          joined_of_matches hr hmatch (List.append_ne_nil_of_right_ne_nil _ ht)
        rcases hjoined.minus with hhead | hall
        · have hhead := hhead.1
          rw [hc, List.cons_append, List.head?_cons] at hhead
          rw [Option.some.inj hhead] at hcnum
          exact absurd hcnum (by decide)
        · have hd := alnum_of_num (hall d (List.mem_append_right _ List.mem_cons_self))
          cases hnot.symm.trans hd
    | false =>
        have hjoined : Joined c (v ++ d :: t') := by
          refine joined_of_matches hr ?_ (List.append_ne_nil_of_right_ne_nil _ ht)
          rw [← List.cons_append, ← hc]
          exact hmatch
        have hd := hjoined.alnum (alnum_of_num hcnum) d (List.mem_append_right _ List.mem_cons_self)
        cases hnot.symm.trans hd
  have hrules : ∃ after, rules = (firstRules ++ words.map wordRule) ++ ⟨INTEGER, fun _ yytext => do
      let integer ← atoll yytext
      return some (.vinteger integer)⟩ :: after := ⟨_, rfl⟩
  obtain ⟨after, hrules⟩ := hrules
  have hne : integerText neg n ≠ [] := List.append_ne_nil_of_right_ne_nil _ hne
  rw [tokenize_rule hrules hne (matches_integerText neg n) (not_matches_integerText neg n) hmiss]
  simp only [atoll_integerText]
  cases integer neg n <;> rfl

end Tokens

end Scroller.Hquery
